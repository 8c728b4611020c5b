import Mathlib.Order.Basic
import Mathlib.Data.List.Forall2

/-!
# Loops with early exits

A loop of the source is given by one turn of its body, which either leaves the
loop with a result or goes on from a new state, and by a rank that every further
turn lowers.  Running it is then total, and an invariant that each turn keeps
carries a whole run.
-/

namespace AdbcBridge.Lib

variable {σ ρ : Type*}

inductive Turn (σ ρ : Type*) where
  | leave (result : ρ)
  | again (state : σ)

structure Loop (σ ρ : Type*) where
  turn : σ → Turn σ ρ
  rank : σ → Nat
  descends : ∀ {s s'}, turn s = .again s' → rank s' < rank s

namespace Loop

def run (l : Loop σ ρ) (s : σ) : ρ :=
  match _h : l.turn s with
  | .leave result => result
  | .again s' => l.run s'
termination_by l.rank s
decreasing_by exact l.descends (by assumption)

variable {l : Loop σ ρ} {s s' : σ} {result : ρ}

theorem run_leave (h : l.turn s = .leave result) : l.run s = result := by
  rw [run]
  split
  · simp_all
  · simp_all

theorem run_again (h : l.turn s = .again s') : l.run s = l.run s' := by
  rw [run]
  split
  · simp_all
  · simp_all

/-- The rule of the loop: what holds on entry and is kept by every turn holds of
the result of the turn that leaves. -/
theorem run_rule {I : σ → Prop} {P : ρ → Prop}
    (hagain : ∀ s s', I s → l.turn s = .again s' → I s')
    (hleave : ∀ s result, I s → l.turn s = .leave result → P result)
    (h : I s) : P (l.run s) := by
  induction s using run.induct l with
  | case1 s result hturn =>
      rw [run_leave hturn]
      exact hleave s result h hturn
  | case2 s s' hturn ih =>
      rw [run_again hturn]
      exact ih (hagain s s' h hturn)

/-- Finitely many turns lead from a state to a result. -/
inductive Leaves (l : Loop σ ρ) : σ → ρ → Prop where
  | leave {s : σ} {result : ρ} : l.turn s = .leave result → Leaves l s result
  | again {s s' : σ} {result : ρ} : l.turn s = .again s' → Leaves l s' result → Leaves l s result

theorem leaves_run (l : Loop σ ρ) (s : σ) : l.Leaves s (l.run s) := by
  induction s using run.induct l with
  | case1 s result hturn =>
      rw [run_leave hturn]
      exact .leave hturn
  | case2 s s' hturn ih =>
      rw [run_again hturn]
      exact .again hturn ih

end Loop

/-! ## A loop over a list that the first failure stops -/

/-- Such a loop comes to its end exactly when no turn fails. -/
theorem mapM_ok_iff {α β ε : Type*} {f : α → Except ε β} {xs : List α} :
    (∃ ys, xs.mapM f = .ok ys) ↔ ∀ x ∈ xs, ∃ y, f x = .ok y := by
  induction xs with
  | nil => simp [pure, Except.pure]
  | cons x xs ih =>
      rw [List.forall_mem_cons, ← ih, List.mapM_cons]
      cases f x with
      | error e => simp [bind, Except.bind]
      | ok y =>
          cases List.mapM f xs with
          | error e => simp [bind, Except.bind]
          | ok ys => simp [bind, Except.bind, pure, Except.pure]

/-- What such a loop returns belongs turn by turn to what it went over. -/
theorem forall₂_of_mapM {α β ε : Type*} {f : α → Except ε β} {xs : List α} {ys : List β}
    (h : xs.mapM f = .ok ys) : List.Forall₂ (fun x y => f x = .ok y) xs ys := by
  induction xs generalizing ys with
  | nil =>
      cases h
      exact List.Forall₂.nil
  | cons x xs ih =>
      rw [List.mapM_cons] at h
      cases hx : f x with
      | error e =>
          rw [hx] at h
          cases h
      | ok y =>
          rw [hx] at h
          cases hxs : xs.mapM f with
          | error e =>
              rw [hxs] at h
              cases h
          | ok rest =>
              rw [hxs] at h
              cases h
              exact List.Forall₂.cons hx (ih hxs)

theorem mem_of_mapM {α β ε : Type*} {f : α → Except ε β} {xs : List α} {ys : List β}
    (h : xs.mapM f = .ok ys) {y : β} (hy : y ∈ ys) : ∃ x ∈ xs, f x = .ok y := by
  have hall := forall₂_of_mapM h
  clear h
  induction hall with
  | nil => cases hy
  | @cons x z xs ys hxz hrest ih =>
      rw [List.mem_cons] at hy
      cases hy with
      | inl heq => exact ⟨x, List.mem_cons_self, by rw [hxz, heq]⟩
      | inr hmem =>
          obtain ⟨w, hw, hwy⟩ := ih hmem
          exact ⟨w, List.mem_cons_of_mem x hw, hwy⟩

/-- What each turn carries over is carried over by the loop. -/
theorem map_of_mapM {α β γ ε : Type*} {f : α → Except ε β} {g : β → γ} {k : α → γ}
    (hcarry : ∀ x y, f x = .ok y → g y = k x) {xs : List α} {ys : List β}
    (h : xs.mapM f = .ok ys) : ys.map g = xs.map k := by
  have hall := forall₂_of_mapM h
  clear h
  induction hall with
  | nil => rfl
  | cons hxy hrest ih => rw [List.map_cons, List.map_cons, ih, hcarry _ _ hxy]

end AdbcBridge.Lib
