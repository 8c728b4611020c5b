import Mathlib

/-!
# Doubled delimiters

Text in which two delimiters in a row stand for one and a single one ends it: how such
text is written, and how it is read.
-/

namespace AdbcBridge.Lib.Doubled

variable {α : Type*} [DecidableEq α]

/-- Every delimiter twice. -/
def escape (q : α) (s : List α) : List α := s.flatMap fun c => if c = q then [q, q] else [c]

/-- The text up to a single delimiter or to the end, and what follows it. -/
def read (q : α) : List α → List α × List α
  | [] => ([], [])
  | c :: s =>
      if c = q then
        match s with
        | [] => ([], [])
        | d :: t => if d = q then (q :: (read q t).1, (read q t).2) else ([], d :: t)
      else (c :: (read q s).1, (read q s).2)

theorem escape_cons (q c : α) (s : List α) :
    escape q (c :: s) = (if c = q then [q, q] else [c]) ++ escape q s := by
  rw [escape, List.flatMap_cons, escape]

theorem escape_append (q : α) (s t : List α) :
    escape q (s ++ t) = escape q s ++ escape q t := List.flatMap_append

/-- Text without the delimiter stands as it is. -/
theorem escape_of_not_mem {q : α} {s : List α} (h : q ∉ s) : escape q s = s := by
  induction s with
  | nil => rfl
  | cons c s ih =>
      rw [List.mem_cons, not_or] at h
      rw [escape_cons, if_neg (Ne.symm h.1), ih h.2, List.singleton_append]

theorem read_ordinary {q c : α} (hc : c ≠ q) (s : List α) :
    read q (c :: s) = (c :: (read q s).1, (read q s).2) := by
  rw [read.eq_def]
  exact if_neg hc

theorem read_doubled (q : α) (s : List α) :
    read q (q :: q :: s) = (q :: (read q s).1, (read q s).2) := by
  simp [read]

/-- A single delimiter ends the text. -/
theorem read_close {q : α} {t : List α} (ht : t.head? ≠ some q) : read q (q :: t) = ([], t) := by
  cases t with
  | nil => simp [read]
  | cons d t =>
      have hd : d ≠ q := fun heq => ht (congrArg some heq)
      simp [read, hd]

/-- The cases of the reader. -/
theorem read_cases {P : List α → Prop} (q : α) (nil : P [])
    (ordinary : ∀ c s, c ≠ q → P s → P (c :: s)) (doubled : ∀ s, P s → P (q :: q :: s))
    (close : ∀ t : List α, t.head? ≠ some q → P (q :: t)) (s : List α) : P s := by
  induction h : s.length using Nat.strong_induction_on generalizing s with
  | _ n ih =>
      cases s with
      | nil => exact nil
      | cons c s =>
          rw [List.length_cons] at h
          by_cases hc : c = q
          · rw [hc]
            by_cases hs : s.head? = some q
            · obtain ⟨t, rfl⟩ := List.head?_eq_some_iff.mp hs
              rw [List.length_cons] at h
              exact doubled t (ih t.length (by omega) t rfl)
            · exact close s hs
          · exact ordinary c s hc (ih s.length (by omega) s rfl)

theorem read_escape {q : α} (s : List α) {t : List α} (ht : t.head? ≠ some q) :
    read q (escape q s ++ q :: t) = (s, t) := by
  induction s with
  | nil => exact read_close ht
  | cons c s ih =>
      rw [escape_cons]
      by_cases hc : c = q
      · rw [if_pos hc, hc, List.append_assoc, List.cons_append, List.singleton_append,
          read_doubled, ih]
      · rw [if_neg hc, List.append_assoc, List.singleton_append, read_ordinary hc, ih]

/-- What was read is there with its delimiters doubled, and a single one or nothing
behind it. -/
theorem escape_read (q : α) (s : List α) :
    ∃ tail, s = escape q (read q s).1 ++ tail ∧ ∀ c ∈ tail.head?, c = q := by
  induction s using read_cases q with
  | nil => exact ⟨[], rfl, fun c hc => absurd hc (Option.not_mem_none c)⟩
  | ordinary c s hc ih =>
      obtain ⟨tail, htail, hhead⟩ := ih
      refine ⟨tail, ?_, hhead⟩
      rw [read_ordinary hc, escape_cons, if_neg hc, List.append_assoc, ← htail,
        List.singleton_append]
  | doubled s ih =>
      obtain ⟨tail, htail, hhead⟩ := ih
      refine ⟨tail, ?_, hhead⟩
      rw [read_doubled, escape_cons, if_pos rfl, List.append_assoc, ← htail]
      rfl
  | close t ht =>
      refine ⟨q :: t, ?_, fun c hc => (Option.some.inj hc).symm⟩
      rw [read_close ht]
      rfl

theorem read_suffix (q : α) (s : List α) : (read q s).2 <:+ s := by
  induction s using read_cases q with
  | nil => exact List.suffix_refl _
  | ordinary c s hc ih =>
      rw [read_ordinary hc]
      exact ih.trans (List.suffix_cons _ _)
  | doubled s ih =>
      rw [read_doubled]
      exact ih.trans ((List.suffix_cons _ _).trans (List.suffix_cons _ _))
  | close t ht =>
      rw [read_close ht]
      exact List.suffix_cons _ _

theorem read_of_not_mem {q : α} {s : List α} (h : q ∉ s) (t : List α) :
    read q (s ++ t) = (s ++ (read q t).1, (read q t).2) := by
  induction s with
  | nil => rfl
  | cons c s ih =>
      rw [List.mem_cons, not_or] at h
      rw [List.cons_append, read_ordinary (Ne.symm h.1), ih h.2]
      rfl

/-- What begins with delimiters and goes on with a text written doubled is not that text
as it stands, a delimiter and another character. -/
theorem head_of_opened {q d : α} {n : Nat} {s tail t : List α}
    (htail : ∀ c ∈ tail.head?, c = q)
    (h : List.replicate (n + 1) q ++ (escape q s ++ tail) = s ++ q :: d :: t) : d = q := by
  induction s generalizing n with
  | nil =>
      rw [List.replicate_succ, List.cons_append, List.nil_append, List.cons.injEq] at h
      have hhead := congrArg List.head? h.2
      rw [List.head?_cons] at hhead
      cases n with
      | zero => exact htail d hhead
      | succ n => exact (Option.some.inj hhead).symm
  | cons c s ih =>
      rw [List.replicate_succ, List.cons_append, List.cons_append, List.cons.injEq] at h
      obtain ⟨rfl, hrest⟩ := h
      rw [escape_cons, if_pos rfl] at hrest
      apply ih (n := n + 1)
      have hreplicate : List.replicate (n + 1 + 1) q = List.replicate n q ++ [q, q] :=
        List.replicate_add n 2 q
      rw [← hrest, hreplicate, List.append_assoc, List.append_assoc]

/-- A text that is read where it stands as it is, with a single delimiter behind it, has
no delimiter in it. -/
theorem not_mem_of_read {q d : α} {s t : List α} (hd : d ≠ q)
    (h : (read q (s ++ q :: d :: t)).1 = s) : q ∉ s := by
  intro hmem
  obtain ⟨a, b, hs, ha⟩ := List.eq_append_cons_of_mem hmem
  obtain ⟨tail, htext, htail⟩ := escape_read q (s ++ q :: d :: t)
  rw [h, hs, escape_append, escape_of_not_mem ha, escape_cons, if_pos rfl] at htext
  simp only [List.append_assoc, List.cons_append, List.nil_append, List.append_cancel_left_eq,
    List.cons.injEq, true_and] at htext
  exact hd (head_of_opened (n := 0) htail htext.symm)

end AdbcBridge.Lib.Doubled
