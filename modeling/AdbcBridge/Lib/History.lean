import Mathlib.Data.List.Induction
import Mathlib.Tactic.Common

/-!
# What a log says about its past

Past-time operators over a list of events, the newest at the end: a relation between
each event and what came before it, an event that nothing has undone since, and the
number of events of one kind after another.
-/

namespace AdbcBridge.Lib

variable {α : Type*} {l m : List α} {a b : α}

/-- Every event is related to the events before it. -/
def Historically (P : List α → α → Prop) (l : List α) : Prop :=
  ∀ pre a post, l = pre ++ a :: post → P pre a

theorem historically_nil (P : List α → α → Prop) : Historically P [] := by
  intro pre a post h
  simp at h

theorem historically_snoc {P : List α → α → Prop} :
    Historically P (l ++ [a]) ↔ Historically P l ∧ P l a := by
  constructor
  · intro h
    exact ⟨fun pre b post hl => h pre b (post ++ [a]) (by simp [hl]), h l a [] rfl⟩
  · intro ⟨h, ha⟩ pre b post hl
    rcases post.eq_nil_or_concat with rfl | ⟨post, c, rfl⟩
    · have hab := List.append_inj' hl rfl
      simp only [List.cons.injEq, and_true] at hab
      exact hab.2 ▸ hab.1 ▸ ha
    · rw [List.concat_eq_append, ← List.cons_append, ← List.append_assoc] at hl
      exact h pre b post (List.append_inj' hl rfl).1

/-- Events that are related to any past may follow. -/
theorem Historically.append {P : List α → α → Prop} (h : Historically P l)
    (hm : ∀ pre, ∀ a ∈ m, P pre a) : Historically P (l ++ m) := by
  induction m using List.reverseRecOn with
  | nil => simpa using h
  | append_singleton m a ih =>
      rw [← List.append_assoc, historically_snoc]
      exact ⟨ih fun pre b hb => hm pre b (by simp [hb]), hm _ a (by simp)⟩

/-- An event of the kind `P` came and none of the kind `Q` after it. -/
def Since (P Q : α → Prop) (l : List α) : Prop :=
  ∃ pre a post, l = pre ++ a :: post ∧ P a ∧ ∀ b ∈ post, ¬ Q b

namespace Since

variable {P Q : α → Prop}

theorem now (h : P a) : Since P Q (l ++ [a]) := ⟨l, a, [], rfl, h, by simp⟩

theorem append (h : Since P Q l) (hm : ∀ b ∈ m, ¬ Q b) : Since P Q (l ++ m) := by
  obtain ⟨pre, a, post, rfl, ha, hpost⟩ := h
  refine ⟨pre, a, post ++ m, by simp, ha, ?_⟩
  intro b hb
  rcases List.mem_append.1 hb with hb | hb
  · exact hpost b hb
  · exact hm b hb

theorem snoc (h : Since P Q l) (hb : ¬ Q b) : Since P Q (l ++ [b]) :=
  h.append (by simpa using hb)

end Since

/-- An event of the kind `Q` at the end that is none of the kind `P` ends it. -/
theorem not_since_snoc {P Q : α → Prop} (hP : ¬ P b) (hQ : Q b) : ¬ Since P Q (l ++ [b]) := by
  intro ⟨pre, a, post, hl, ha, hpost⟩
  rcases post.eq_nil_or_concat with rfl | ⟨post, c, rfl⟩
  · have hab := (List.append_inj' hl rfl).2
    simp only [List.cons.injEq, and_true] at hab
    exact hP (hab ▸ ha)
  · rw [List.concat_eq_append, ← List.cons_append, ← List.append_assoc] at hl
    have hbc := (List.append_inj' hl rfl).2
    simp only [List.cons.injEq, and_true] at hbc
    exact hpost c (by simp) (hbc ▸ hQ)

section Count

variable [DecidableEq α]

/-- How many `b` follow the first `a`. -/
def countSince (a b : α) : List α → Nat
  | [] => 0
  | x :: l => if x = a then l.count b else countSince a b l

theorem countSince_append (h : a ∈ l) :
    countSince a b (l ++ m) = countSince a b l + m.count b := by
  induction l with
  | nil => simp at h
  | cons x l ih =>
      rw [List.cons_append, countSince, countSince]
      split
      · exact List.count_append
      · rename_i hx
        exact ih ((List.mem_cons.1 h).resolve_left (Ne.symm hx))

theorem countSince_new (h : a ∉ l) : countSince a b (l ++ [a]) = 0 := by
  induction l with
  | nil => simp [countSince]
  | cons x l ih =>
      rw [List.mem_cons, not_or] at h
      rw [List.cons_append, countSince, if_neg (Ne.symm h.1), ih h.2]

theorem countSince_le (a b : α) (l : List α) : countSince a b l ≤ l.length := by
  induction l with
  | nil => simp [countSince]
  | cons x l ih =>
      rw [countSince, List.length_cons]
      split
      · exact Nat.le_succ_of_le List.count_le_length
      · exact Nat.le_succ_of_le ih

/-- No `b` after `a`. -/
theorem since_of_countSince (h : a ∈ l) (h0 : countSince a b l = 0) :
    Since (· = a) (· = b) l := by
  induction l with
  | nil => simp at h
  | cons x l ih =>
      rw [countSince] at h0
      split at h0
      · rename_i hx
        refine ⟨[], x, l, rfl, hx, ?_⟩
        rintro c hc rfl
        exact List.count_eq_zero.1 h0 hc
      · rename_i hx
        obtain ⟨pre, y, post, rfl, hy⟩ := ih ((List.mem_cons.1 h).resolve_left (Ne.symm hx)) h0
        exact ⟨x :: pre, y, post, rfl, hy⟩

end Count

end AdbcBridge.Lib
